/-
  StackCalc.Proofs.Machine.Rules
  ──────────────────────────────
  **THE RULES OF A STEP.**

  Three tables say what the thirteen operations do, with the values and the open calls
  written from the bottom up, so that the top of the stack is at the end:

      Operation.Fails     the four faults, and when each of them arises
      Operation.Yields    the values after an operation
      Operation.GoesOn    the cursor and the open calls after it

  A step of a running machine follows them.  It fails with a fault just if the table
  has the fault for the operation at the cursor, and if there is none, it does what the
  other two say and nothing else: only an `INPUT` makes the machine wait.  Past the end
  of a routine it returns after the call that is open, or ends the run.
-/
import StackCalc.Decimal.Pattern
import StackCalc.Proofs.Machine.CallChain
import StackCalc.Proofs.Machine.ControlFlow

namespace StackCalc

/-! ## §1. Zero divisors. -/

namespace Binary64

open Float.Model

/-- A value that is equal to zero unpacks to a zero: any other one is smaller or larger, or cannot
be compared. -/
theorem unpack_of_beq_zero {x : Float} (h : (x == 0) = true) : ∃ s, x.toModel.unpack = .zero s := by
  have hzero : (0 : Float).toModel.unpack = .zero .positive := rfl
  have hcompare : (x.toModel.unpack.compare (.zero .positive) == some .eq) = true := by
    rw [← hzero]
    exact h
  cases hx : x.toModel.unpack with
  | zero s => exact ⟨s, rfl⟩
  | notANumber =>
    rw [hx] at hcompare
    cases hcompare
  | infinity s | finite s =>
    rw [hx] at hcompare
    cases s <;> cases hcompare

/-- **Equal to zero are the two zeros**, and no other value. -/
theorem beq_zero_iff (x : Float) : (x == 0) = true ↔ x = 0 ∨ x = -0 := by
  constructor
  · intro h
    obtain ⟨s, hs⟩ := unpack_of_beq_zero h
    have hbits : x.toBits = ⟨UnpackedFloat.pack .binary64 (.zero s)⟩ := by
      rw [← hs]
      exact UInt64.toBitVec_inj.1 (pack_unpack x.toModel.valid).symm
    rw [← ofBits_toBits x, hbits]
    cases s with
    | positive => exact .inl (by decide +kernel)
    | negative => exact .inr (by decide +kernel)
  · rintro (rfl | rfl) <;> decide +kernel

end Binary64

/-! ## §2. The tables. -/

namespace Operation

/-- **When an operation fails**, at a place and with these values on the stack. -/
inductive Fails (image : Image) (values : List Float) (place : Location) : Operation → Fault → Prop
  | underflow {op : Operation} (h : values.length < op.opcode.arity) :
      Fails image values place op (.stackUnderflow op.opcode place)
  | division {s : List Float} {b a : Float} (h : values = s ++ [b, a]) (hzero : a = 0 ∨ a = -0) :
      Fails image values place .div (.divisionByZero place)
  | label {name : String} (h : image.label? name = none) :
      Fails image values place (.goto name) (.unknownLabel name place)
  | routine {name : String} (h : image.contains name = false) :
      Fails image values place (.call name) (.unknownRoutine name place)

/-- **The values after an operation.** -/
inductive Yields : Operation → List Float → List Float → Prop
  | push (value : Float) (s : List Float) : Yields (.push value) s (s ++ [value])
  | add (s : List Float) (b a : Float) : Yields .add (s ++ [b, a]) (s ++ [b + a])
  | sub (s : List Float) (b a : Float) : Yields .sub (s ++ [b, a]) (s ++ [b - a])
  | mul (s : List Float) (b a : Float) : Yields .mul (s ++ [b, a]) (s ++ [b * a])
  | div (s : List Float) (b a : Float) : Yields .div (s ++ [b, a]) (s ++ [b / a])
  | sin (s : List Float) (a : Float) : Yields .sin (s ++ [a]) (s ++ [a.sin])
  | cos (s : List Float) (a : Float) : Yields .cos (s ++ [a]) (s ++ [a.cos])
  | tan (s : List Float) (a : Float) : Yields .tan (s ++ [a]) (s ++ [a.tan])
  | dup (s : List Float) (a : Float) : Yields .dup (s ++ [a]) (s ++ [a, a])
  | input (prompt : String) (s : List Float) : Yields (.input prompt) s s
  | label (name : String) (s : List Float) : Yields (.label name) s s
  | goto (name : String) (s : List Float) : Yields (.goto name) s s
  | call (name : String) (s : List Float) : Yields (.call name) s s

/-- **The cursor and the open calls after an operation** at a place, below these calls. -/
inductive GoesOn (image : Image) (place : Location) (callers : List Location) :
    Operation → Location → List Location → Prop
  | goto {name : String} {position : Nat} (h : image.label? name = some position) :
      GoesOn image place callers (.goto name) ⟨place.routine, position⟩ callers
  | call {name : String} (h : image.contains name = true) :
      GoesOn image place callers (.call name) ⟨name, 0⟩ (callers ++ [place])
  | next {op : Operation} (hgoto : ∀ name, op ≠ .goto name) (hcall : ∀ name, op ≠ .call name) :
      GoesOn image place callers op ⟨place.routine, place.position + 1⟩ callers

/-- The prompt with which an operation asks for a value. -/
def prompt? : Operation → Option String
  | .input prompt => some prompt
  | _ => none

/-- What an operation does to a stack is what the table says. -/
theorem yields_of_effect? {op : Operation} {s s' : List Float} (h : op.effect? s = some s') :
    op.Yields s.reverse s'.reverse := by
  have hneeded : op.opcode.arity ≤ s.length := by
    rw [← isSome_effect?_iff, h]
    rfl
  cases op with
  | push value =>
    cases h
    rw [List.reverse_cons]
    exact .push value s.reverse
  | input prompt => cases h; exact .input prompt s.reverse
  | label name => cases h; exact .label name s.reverse
  | goto name => cases h; exact .goto name s.reverse
  | call name => cases h; exact .call name s.reverse
  | sin | cos | tan | dup =>
    match s, hneeded with
    | a :: s, _ =>
      cases h
      simp only [List.reverse_cons, List.append_assoc, List.singleton_append]
      constructor
  | add | sub | mul | div =>
    match s, hneeded with
    | a :: b :: s, _ =>
      cases h
      simp only [List.reverse_cons, List.append_assoc, List.singleton_append]
      constructor

end Operation

/-! ## §3. Carrying out an operation. -/

namespace Machine

variable {m : Machine} {image : Image} {op : Operation} {fault : Fault}

/-- The operation was carried out as the tables say, and nothing else of the machine changed. -/
structure Performs (m : Machine) (image : Image) (op : Operation) (r : Response) : Prop where
  reply : r.reply = .stepped
  values : op.Yields m.values r.machine.values
  places : op.GoesOn image m.cursor m.callers r.machine.cursor r.machine.callers
  running : r.machine.isRunning = true
  /-- The machine waits after an `INPUT`, and then only. -/
  pending : r.machine.pending? = op.prompt?
  announced : r.announced = if m.listening then op.prompt?.toList else []
  image : r.machine.image = m.image
  listening : r.machine.listening = m.listening

theorem stack_of_values {s : List Float} {b a : Float} (h : m.values = s ++ [b, a]) :
    m.stack = a :: b :: s.reverse := by
  have hreverse := congrArg List.reverse h
  rw [values, List.reverse_reverse] at hreverse
  rw [hreverse]
  simp

theorem effect?_eq_none_iff : op.effect? m.stack = none ↔ m.values.length < op.opcode.arity := by
  have hdepth := op.isSome_effect?_iff m.stack
  rw [values, List.length_reverse, ← Nat.not_le, ← hdepth]
  simp

/-- An operation for which the table has a fault fails with it. -/
theorem execute_of_fails (h : op.Fails image m.values m.cursor fault) :
    m.execute image op = m.fail fault := by
  cases h with
  | underflow h =>
    unfold execute
    rw [effect?_eq_none_iff.2 h]
  | division h hzero =>
    have hdivides : Operation.div.dividesByZero m.stack = true := by
      rw [stack_of_values h]
      exact (Binary64.beq_zero_iff _).2 hzero
    refine execute_of_dividesByZero ?_ hdivides image
    rw [stack_of_values h]
    rfl
  | label h =>
    show m.jump image _ = _
    unfold jump
    rw [h]
  | routine h =>
    show m.enter image _ = _
    unfold enter
    rw [h]
    rfl

/-- An operation that finds its values divides by zero only if the table says so. -/
theorem dividesByZero_of_not_fails {stack : List Float} (heffect : op.effect? m.stack = some stack)
    (h : ∀ fault, ¬ op.Fails image m.values m.cursor fault) :
    op.dividesByZero m.stack = false := by
  cases op with
  | div =>
    rw [Bool.eq_false_iff]
    intro hzero
    match hstack : m.stack, heffect with
    | a :: b :: s, _ =>
      have hvalues : m.values = s.reverse ++ [b, a] := by
        rw [values, hstack]
        simp
      rw [hstack] at hzero
      exact h _ (.division hvalues ((Binary64.beq_zero_iff a).1 hzero))
  | _ => rfl

theorem performs_ask (m : Machine) (image : Image) (prompt : String) :
    m.Performs image (.input prompt) (m.ask prompt) where
  reply := rfl
  values := .input prompt m.values
  places := .next (by simp) (by simp)
  running := rfl
  pending := rfl
  announced := rfl
  image := rfl
  listening := rfl

/-- The operations that do not ask leave a running machine. -/
theorem performs_stepped {n : Machine} (hphase : n.phase = .running) (hprompt : op.prompt? = none)
    (hvalues : op.Yields m.values n.values)
    (hplaces : op.GoesOn image m.cursor m.callers n.cursor n.callers)
    (himage : n.image = m.image) (hlistening : n.listening = m.listening) :
    m.Performs image op n.stepped where
  reply := rfl
  values := hvalues
  places := hplaces
  running := by
    show n.isRunning = true
    unfold isRunning
    rw [hphase]
  pending := by
    show n.pending? = op.prompt?
    unfold pending?
    rw [hphase, hprompt]
  announced := by
    rw [hprompt]
    exact (ite_self []).symm
  image := himage
  listening := hlistening

theorem performs_jump {name : String} (hphase : m.phase = .running)
    (h : ∀ fault, ¬ Operation.Fails image m.values m.cursor (.goto name) fault) :
    m.Performs image (.goto name) (m.jump image name) := by
  unfold jump
  cases hlabel : image.label? name with
  | none => exact absurd (.label hlabel) (h _)
  | some position => exact performs_stepped hphase rfl (.goto name m.values) (.goto hlabel) rfl rfl

theorem performs_enter {name : String} (hphase : m.phase = .running)
    (h : ∀ fault, ¬ Operation.Fails image m.values m.cursor (.call name) fault) :
    m.Performs image (.call name) (m.enter image name) := by
  have hname : image.contains name = true := by
    by_contra hunknown
    exact h _ (.routine (Bool.eq_false_iff.2 hunknown))
  have hplaces : Operation.GoesOn image m.cursor m.callers (.call name) ⟨name, 0⟩
      (m.cursor :: m.frames).reverse := by
    rw [List.reverse_cons]
    exact .call hname
  unfold enter
  rw [if_pos hname]
  exact performs_stepped hphase rfl (.call name m.values) hplaces rfl rfl

/-- An operation for which the table has no fault is carried out. -/
theorem performs_of_not_fails (hphase : m.phase = .running)
    (h : ∀ fault, ¬ op.Fails image m.values m.cursor fault) :
    m.Performs image op (m.execute image op) := by
  obtain ⟨stack, heffect⟩ : ∃ stack, op.effect? m.stack = some stack := by
    cases heffect : op.effect? m.stack with
    | some stack => exact ⟨stack, rfl⟩
    | none => exact absurd (.underflow (effect?_eq_none_iff.1 heffect)) (h _)
  have hzero : ¬ op.dividesByZero m.stack = true :=
    Bool.eq_false_iff.1 (dividesByZero_of_not_fails heffect h)
  unfold execute
  simp only [heffect, if_neg hzero]
  cases op with
  | input prompt => exact m.performs_ask image prompt
  | goto name => exact performs_jump hphase h
  | call name => exact performs_enter hphase h
  | _ =>
    exact performs_stepped hphase rfl (Operation.yields_of_effect? heffect)
      (.next (by simp) (by simp)) rfl rfl

/-- Leaving the first routine, and leaving one that was called. -/
theorem leave_of_callers (m : Machine) :
    (m.callers = [] → m.leave = { machine := { m with phase := .finished }, reply := .finished })
      ∧ ∀ callers place, m.callers = callers ++ [place] →
          m.leave = stepped { m with frames := callers.reverse, cursor := place.next } := by
  unfold leave callers
  constructor
  · intro hframes
    rw [List.reverse_eq_nil_iff.1 hframes]
  · intro callers place hframes
    rw [List.reverse_eq_append_iff, List.reverse_singleton, List.singleton_append] at hframes
    rw [hframes]

end Machine

/-! ## §4. Steps. -/

/-- **A step follows the rules.**  Let a machine that can be reached be running.  If there is an
operation at its cursor, the step fails with just the faults that the table has for it, and
where it has none, the operation is carried out as the tables say.  If there is none, the
machine returns after the call that was opened last, or the run is over. -/
theorem step_follows_rules {m : Machine} (hm : m.Reachable) (hphase : m.phase = .running)
    (strategy : Strategy) :
    ∃ image, m.image = some image
      ∧ (∀ i, m.current? = some i →
          (∀ fault, (m.step strategy).reply = .failed fault
              ↔ i.operation.Fails image m.values m.cursor fault)
            ∧ ((∀ fault, ¬ i.operation.Fails image m.values m.cursor fault) →
                m.Performs image i.operation (m.step strategy)))
      ∧ (m.current? = none →
          (m.callers = [] → m.step strategy
              = { machine := { m with phase := .finished }, reply := .finished })
            ∧ ∀ callers place, m.callers = callers ++ [place] → m.step strategy
                = { machine := { m with frames := callers.reverse, cursor := place.next },
                    reply := .stepped }) := by
  obtain ⟨image, himage, hstep⟩ :=
    (hm.linked (by rw [hphase]; exact Phase.noConfusion)).stepInto_eq hphase
  rw [m.step_eq_stepInto]
  refine ⟨image, himage, ?_, ?_⟩
  · intro i hi
    simp only [hi] at hstep
    rw [hstep]
    have hperforms : (∀ fault, ¬ i.operation.Fails image m.values m.cursor fault) →
        m.Performs image i.operation (m.execute image i.operation) :=
      Machine.performs_of_not_fails hphase
    refine ⟨fun fault => ⟨?_, ?_⟩, hperforms⟩
    · -- a step that fails has a fault in the table, and there is only one that it can fail with
      intro hreply
      by_cases hfails : ∃ fault', i.operation.Fails image m.values m.cursor fault'
      · obtain ⟨fault', hfault'⟩ := hfails
        rw [Machine.execute_of_fails hfault'] at hreply
        cases hreply
        exact hfault'
      · rw [(hperforms (not_exists.1 hfails)).reply] at hreply
        cases hreply
    · intro hfails
      rw [Machine.execute_of_fails hfails]
      rfl
  · intro hnone
    simp only [hnone] at hstep
    rw [hstep]
    exact m.leave_of_callers

/-- The machine that is about to divide `x` by `v`. -/
def quotientMachine (v x : Float) : Machine :=
  Machine.after {} ((quotientHistory v x).take 6)

theorem quotientMachine_spec (v x : Float) :
    (quotientMachine v x).Reachable ∧ (quotientMachine v x).phase = .running
      ∧ (quotientMachine v x).current? = some ⟨3, 1, 2, .div⟩
      ∧ (quotientMachine v x).cursor = ⟨"main", 2⟩
      ∧ (quotientMachine v x).values = [x, v] := by
  refine ⟨⟨_, rfl⟩, ?_⟩
  have himage : quotientMachine v x
      = Machine.after { image := some ⟨[("main", (quotientProgram v).instructions)], []⟩ }
          ((quotientHistory v x).take 6).tail := by
    rw [← ofProgram_quotientProgram]
    rfl
  rw [himage]
  exact ⟨rfl, rfl, rfl, rfl⟩

theorem step_follows_rules_quotientMachine :
    let m := quotientMachine (-0) 8
    let n := quotientMachine 2 8
    m.Reachable ∧ m.phase = .running ∧ m.current? = some ⟨3, 1, 2, .div⟩ ∧ m.values = [8, -0]
      ∧ (m.step .into).reply = .failed (.divisionByZero ⟨"main", 2⟩)
      ∧ n.Reachable ∧ n.phase = .running ∧ n.current? = some ⟨3, 1, 2, .div⟩ ∧ n.values = [8, 2]
      ∧ ∃ image, n.Performs image .div (n.step .over) := by
  intro m n
  obtain ⟨hm, hmphase, hmcurrent, hmcursor, hmvalues⟩ := quotientMachine_spec (-0) 8
  obtain ⟨hn, hnphase, hncurrent, -, hnvalues⟩ := quotientMachine_spec 2 8
  obtain ⟨_, -, hmrules, -⟩ := step_follows_rules hm hmphase .into
  obtain ⟨image, -, hnrules, -⟩ := step_follows_rules hn hnphase .over
  have hfailed : (m.step .into).reply = .failed (.divisionByZero m.cursor) :=
    ((hmrules _ hmcurrent).1 _).2 (.division (s := []) hmvalues (.inr rfl))
  have hcarried : ∀ fault, ¬ Operation.div.Fails image n.values n.cursor fault := by
    rintro _ (hfew | @⟨s, b, a, htop, hzero⟩)
    · rw [hnvalues] at hfew
      exact absurd hfew (by decide)
    · have hvalues : [] ++ [8, 2] = s ++ [b, a] := hnvalues.symm.trans htop
      cases (List.append_inj' hvalues rfl).2
      exact absurd hzero (by decide +kernel)
  rw [hmcursor] at hfailed
  exact ⟨hm, hmphase, hmcurrent, hmvalues, hfailed, hn, hnphase, hncurrent, hnvalues, image,
    (hnrules _ hncurrent).2 hcarried⟩

end StackCalc
