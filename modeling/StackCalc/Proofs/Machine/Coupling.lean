/-
  StackCalc.Proofs.Machine.Coupling
  ─────────────────────────────────
  **TWO MACHINES SIDE BY SIDE.**

  A coupling says which operations may stand at the same place of two programs,
  which values may be provided to the two machines, and how their stacks are
  related then.  Two machines are coupled if they are in the same phase, at the
  same place, with the same open calls, on images that agree up to such
  operations.

  What a step looks at besides the operation is coupled, so one question is left
  to each coupling: whether two related operations do the same to two related
  stacks (`Coupling.Matches`).  Where they do, the answers are equal and the
  machines stay coupled, step by step and over whole histories:

      Forall₂ (Response.Coupled c) (m.responses h) (n.responses k)
-/
import Mathlib.Data.List.Forall2
import StackCalc.Machine.History

namespace StackCalc

/-! ## §1. Operations up to their literals. -/

/-- An operation without the value of its literal. -/
def Operation.skeleton : Operation → Operation
  | .push _ => .push 0
  | op => op

/-- Operations with one skeleton are equal, or both put a literal on the stack. -/
theorem Operation.eq_or_push_of_skeleton_eq {a b : Operation} (h : a.skeleton = b.skeleton) :
    a = b ∨ ∃ v w, a = .push v ∧ b = .push w := by
  -- two operations of different kinds have different skeletons
  cases a with
  | push v =>
    cases b with
    | push w => exact .inr ⟨v, w, rfl, rfl⟩
    | _ => exact absurd h (by simp [skeleton])
  | _ =>
    left
    cases b with
    | push w => exact absurd h (by simp [skeleton])
    | _ => exact h

theorem Operation.opcode_eq_of_skeleton_eq {a b : Operation} (h : a.skeleton = b.skeleton) :
    a.opcode = b.opcode := by
  rcases eq_or_push_of_skeleton_eq h with rfl | ⟨v, w, rfl, rfl⟩
  · rfl
  · rfl

/-! ## §2. Couplings. -/

/-- How two machines may differ. -/
structure Coupling where
  /-- Which operations may stand at the same place. -/
  operation : Operation → Operation → Prop
  /-- Which values may be provided at the same time. -/
  value : Float → Float → Prop
  /-- How the stacks are related. -/
  stack : List Float → List Float → Prop
  /-- Nothing but a literal may differ. -/
  skeleton : ∀ {a b}, operation a b → a.skeleton = b.skeleton
  /-- Values that may be provided keep the stacks related. -/
  cons : ∀ {v w s t}, value v w → stack s t → stack (v :: s) (w :: t)

/-- Nothing has to differ. -/
structure Coupling.Reflexive (c : Coupling) : Prop where
  operation : ∀ op, c.operation op op
  value : ∀ v, c.value v v
  stack : ∀ s, c.stack s s

variable {c : Coupling}

/-- Two operations do the same to two stacks: both need more values than there
are, or both leave related stacks, and neither or both of them divide by zero. -/
structure Coupling.Matches (c : Coupling) (a b : Operation) (s t : List Float) : Prop where
  effect : Option.Rel c.stack (a.effect? s) (b.effect? t)
  divides : (a.effect? s).isSome → a.dividesByZero s = b.dividesByZero t

/-- Two images that agree up to related operations. -/
structure Image.Coupled (c : Coupling) (a b : Image) : Prop where
  bodies : ∀ name, Option.Rel
    (List.Forall₂ fun i j : Instruction => c.operation i.operation j.operation)
    (a.body? name) (b.body? name)
  labels : ∀ name, a.label? name = b.label? name
  isEmpty : a.isEmpty = b.isEmpty

/-- Two machines that differ by a coupling. -/
structure Machine.Coupled (c : Coupling) (m n : Machine) : Prop where
  image : Option.Rel (Image.Coupled c) m.image n.image
  phase : m.phase = n.phase
  stack : c.stack m.stack n.stack
  frames : m.frames = n.frames
  cursor : m.cursor = n.cursor
  listening : m.listening = n.listening

/-- Two responses with one answer and the same prompts, that leave coupled
machines. -/
structure Response.Coupled (c : Coupling) (r s : Response) : Prop where
  reply : r.reply = s.reply
  announced : r.announced = s.announced
  machine : r.machine.Coupled c s.machine

/-- Two requests that treat coupled machines alike. -/
inductive Request.Coupled (c : Coupling) : Request → Request → Prop
  | load {p q : Program} (hnil : c.stack [] [])
      (h : (Image.ofProgram p).Coupled c (Image.ofProgram q)) : Coupled c (.load p) (.load q)
  | start (hnil : c.stack [] []) : Coupled c .start .start
  | step (strategy : Strategy) : Coupled c (.step strategy) (.step strategy)
  | provide {v w : Float} (h : c.value v w) : Coupled c (.provide v) (.provide w)
  | listen (on : Bool) : Coupled c (.listen on) (.listen on)

theorem rel_cases {α β : Type} {R : α → β → Prop} {x : Option α} {y : Option β}
    (h : Option.Rel R x y) :
    (x = none ∧ y = none) ∨ ∃ a b, x = some a ∧ y = some b ∧ R a b := by
  cases h with
  | none => exact .inl ⟨rfl, rfl⟩
  | some hab => exact .inr ⟨_, _, rfl, rfl, hab⟩

/-- Related lists have related elements at each index, or none. -/
theorem rel_getElem? {α β : Type} {R : α → β → Prop} {xs : List α} {ys : List β}
    (h : List.Forall₂ R xs ys) (k : Nat) : Option.Rel R xs[k]? ys[k]? := by
  induction h generalizing k with
  | nil => exact .none
  | cons hxy _ ih =>
    cases k with
    | zero => exact .some hxy
    | succ k => exact ih k

/-- Options that `f` makes equal are both empty, or hold what `f` makes equal. -/
theorem rel_of_map_eq {α β : Type} {f : α → β} {x y : Option α} (h : x.map f = y.map f) :
    Option.Rel (fun a b => f a = f b) x y := by
  cases x with
  | none =>
    rw [Option.map_none, eq_comm, Option.map_eq_none_iff] at h
    rw [h]
    exact .none
  | some a =>
    rw [Option.map_some, eq_comm, Option.map_eq_some_iff] at h
    obtain ⟨b, rfl, hb⟩ := h
    exact .some hb.symm

namespace Image

variable {a b : Image}

theorem Coupled.contains (h : a.Coupled c b) (name : String) :
    a.contains name = b.contains name := by
  unfold Image.contains
  rcases rel_cases (h.bodies name) with ⟨ha, hb⟩ | ⟨code, code', ha, hb, -⟩
  · rw [ha, hb]
  · rw [ha, hb]
    rfl

/-- What `f` makes of the bodies is looked up as the bodies are. -/
theorem lookup_map_bodies {α : Type} (f : Instruction → α) (name : String)
    (bodies : List (String × List Instruction)) :
    (bodies.map fun b => (b.1, b.2.map f)).lookup name = (bodies.lookup name).map (List.map f) := by
  induction bodies with
  | nil => rfl
  | cons b bodies ih =>
    rw [List.map_cons, List.lookup_cons, List.lookup_cons, ih]
    cases name == b.1 <;> rfl

/-- Images are coupled if their labels are equal, and so is what `f` makes of
their bodies, where `f` tells apart the operations that are not related. -/
theorem coupled_of_map_eq {α : Type} (f : Instruction → α)
    (hf : ∀ i j, f i = f j → c.operation i.operation j.operation)
    (hbodies : (a.bodies.map fun b => (b.1, b.2.map f)) = b.bodies.map fun b => (b.1, b.2.map f))
    (hlabels : a.labels = b.labels) : a.Coupled c b where
  bodies := by
    intro name
    have hbody : (a.body? name).map (List.map f) = (b.body? name).map (List.map f) := by
      unfold body?
      rw [← lookup_map_bodies, hbodies, lookup_map_bodies]
    rcases rel_cases (rel_of_map_eq hbody) with ⟨ha, hb⟩ | ⟨code, code', ha, hb, hcode⟩
    · rw [ha, hb]
      exact .none
    · rw [ha, hb]
      refine .some (List.Forall₂.imp hf ?_)
      -- element by element, `f` makes the same of both bodies
      rw [← List.forall₂_map_right_iff (f := f), ← List.forall₂_map_left_iff (f := f), hcode]
      exact List.forall₂_refl _
  labels := by
    intro name
    unfold label?
    rw [hlabels]
  isEmpty := by
    have hempty := congrArg List.isEmpty hbodies
    rw [List.isEmpty_map, List.isEmpty_map] at hempty
    exact hempty

theorem coupled_refl (hc : ∀ op, c.operation op op) (a : Image) : a.Coupled c a :=
  coupled_of_map_eq (·.operation) (fun _ _ h => h ▸ hc _) rfl rfl

end Image

theorem Machine.coupled_refl (hc : c.Reflexive) (m : Machine) : m.Coupled c m where
  image := by
    cases m.image with
    | none => exact .none
    | some image => exact .some (image.coupled_refl hc.operation)
  phase := rfl
  stack := hc.stack m.stack
  frames := rfl
  cursor := rfl
  listening := rfl

theorem Request.coupled_refl (hc : c.Reflexive) (r : Request) : r.Coupled c r := by
  cases r with
  | load p => exact .load (hc.stack []) ((Image.ofProgram p).coupled_refl hc.operation)
  | start => exact .start (hc.stack [])
  | step strategy => exact .step strategy
  | provide v => exact .provide (hc.value v)
  | listen on => exact .listen on

/-! ## §3. The parts of a step. -/

namespace Machine

variable {m n : Machine}

theorem Coupled.fail (h : m.Coupled c n) (fault : Fault) :
    (m.fail fault).Coupled c (n.fail fault) :=
  ⟨rfl, rfl, h⟩

theorem Coupled.stepped (h : m.Coupled c n) : m.stepped.Coupled c n.stepped :=
  ⟨rfl, rfl, h⟩

theorem Coupled.done (h : m.Coupled c n) : m.done.Coupled c n.done :=
  ⟨rfl, rfl, h⟩

theorem Coupled.rewound (h : m.Coupled c n) (hnil : c.stack [] []) (phase : Phase) :
    (m.rewound phase).Coupled c (n.rewound phase) where
  image := h.image
  phase := rfl
  stack := hnil
  frames := rfl
  cursor := rfl
  listening := h.listening

theorem Coupled.advance (h : m.Coupled c n) : m.advance.Coupled c n.advance :=
  { h with cursor := congrArg Location.next h.cursor }

theorem Coupled.ask (h : m.Coupled c n) (prompt : String) :
    (m.ask prompt).Coupled c (n.ask prompt) where
  reply := rfl
  announced := by
    show (if m.listening then [prompt] else []) = if n.listening then [prompt] else []
    rw [h.listening]
  machine := { h.advance with phase := rfl }

theorem Coupled.jump (h : m.Coupled c n) {a b : Image} (hab : a.Coupled c b) (name : String) :
    (m.jump a name).Coupled c (n.jump b name) := by
  unfold Machine.jump
  rw [hab.labels name]
  cases b.label? name with
  | none =>
    show (m.fail (.unknownLabel name m.cursor)).Coupled c (n.fail (.unknownLabel name n.cursor))
    rw [h.cursor]
    exact h.fail _
  | some position =>
    apply Coupled.stepped
    exact { h with cursor := congrArg (fun l : Location => { l with position }) h.cursor }

theorem Coupled.enter (h : m.Coupled c n) {a b : Image} (hab : a.Coupled c b) (name : String) :
    (m.enter a name).Coupled c (n.enter b name) := by
  unfold Machine.enter
  rw [hab.contains name]
  by_cases hname : b.contains name = true
  · -- the place of the call goes on the stack of calls, in both machines the same
    rw [if_pos hname, if_pos hname]
    apply Coupled.stepped
    refine { h with frames := ?_, cursor := rfl }
    show m.cursor :: m.frames = n.cursor :: n.frames
    rw [h.cursor, h.frames]
  · rw [if_neg hname, if_neg hname, h.cursor]
    exact h.fail _

theorem Coupled.leave (h : m.Coupled c n) : m.leave.Coupled c n.leave := by
  unfold Machine.leave
  rw [h.frames]
  cases n.frames with
  | nil => exact ⟨rfl, rfl, { h with phase := rfl, frames := rfl }⟩
  | cons frame frames =>
    apply Coupled.stepped
    exact { h with frames := rfl, cursor := rfl }

/-- Carrying out two related operations that do the same to the stacks. -/
theorem Coupled.execute (h : m.Coupled c n) {a b : Image} (hab : a.Coupled c b)
    {op op' : Operation} (hop : c.operation op op')
    (hmatch : c.Matches op op' m.stack n.stack) :
    (m.execute a op).Coupled c (n.execute b op') := by
  have hskeleton := c.skeleton hop
  unfold Machine.execute
  rw [h.cursor, Operation.opcode_eq_of_skeleton_eq hskeleton]
  rcases rel_cases hmatch.effect with ⟨hs, ht⟩ | ⟨s, t, hs, ht, hst⟩
  · rw [hs, ht]
    exact h.fail _
  · have hzero : op.dividesByZero m.stack = op'.dividesByZero n.stack :=
      hmatch.divides (by rw [hs]; rfl)
    simp only [hs, ht, hzero]
    by_cases hdivides : op'.dividesByZero n.stack = true
    · rw [if_pos hdivides, if_pos hdivides]
      exact h.fail _
    · rw [if_neg hdivides, if_neg hdivides]
      -- the operations that only change the stack go on at the next position
      have hnext : (Machine.stepped { m.advance with stack := s }).Coupled c
          (Machine.stepped { n.advance with stack := t }) :=
        Coupled.stepped { h.advance with stack := hst }
      rcases Operation.eq_or_push_of_skeleton_eq hskeleton with rfl | ⟨v, w, rfl, rfl⟩
      · cases op with
        | input prompt => exact h.ask prompt
        | goto name => exact h.jump hab name
        | call name => exact h.enter hab name
        | _ => exact hnext
      · exact hnext

/-! ## §4. Steps. -/

/-- A call needs no values and divides nothing, so carrying it out is opening
it. -/
theorem execute_call (m : Machine) (image : Image) (name : String) :
    m.execute image (.call name) = m.enter image name := rfl

/-- **The two ways to step agree.** -/
theorem stepOver_eq_stepInto (m : Machine) : m.stepOver = m.stepInto := by
  unfold stepOver stepInto
  congr 1
  funext image op
  cases op with
  | call name => rw [execute_call]
  | _ => rfl

theorem step_eq_stepInto (m : Machine) (strategy : Strategy) : m.step strategy = m.stepInto := by
  cases strategy
  · rfl
  · exact m.stepOver_eq_stepInto

/-- A step of a running machine, by what stands at its cursor. -/
theorem stepInto_of_running (hphase : m.phase = .running) :
    m.stepInto = match m.image with
      | none => m.fail .noProgram
      | some image =>
        match m.body? with
        | none => m.fail (.unknownRoutine m.cursor.routine m.cursor)
        | some _ =>
          match m.current? with
          | none => m.leave
          | some i => m.execute image i.operation := by
  unfold stepInto stepWith current? body?
  rw [hphase]
  cases m.image with
  | none => rfl
  | some image =>
    simp only [Option.bind_some]
    cases image.body? m.cursor.routine <;> rfl

/-- A running machine that is at an instruction carries it out. -/
theorem stepInto_eq_execute {i : Instruction} (hphase : m.phase = .running)
    (hi : m.current? = some i) : ∃ image, m.stepInto = m.execute image i.operation := by
  -- an instruction comes from a body, and a body from an image
  have hbody : m.body?.isSome := by
    cases h : m.body? with
    | none => simp [current?, h] at hi
    | some body => rfl
  have himage : m.image.isSome := by
    cases h : m.image with
    | none => simp [body?, h] at hbody
    | some image => rfl
  obtain ⟨body, hbody⟩ := Option.isSome_iff_exists.1 hbody
  obtain ⟨image, himage⟩ := Option.isSome_iff_exists.1 himage
  refine ⟨image, ?_⟩
  simp only [stepInto_of_running hphase, himage, hbody, hi]

/-- Coupled machines are at related bodies, or at none. -/
theorem Coupled.body? (h : m.Coupled c n) :
    Option.Rel (List.Forall₂ fun i j : Instruction => c.operation i.operation j.operation)
      m.body? n.body? := by
  unfold Machine.body?
  rw [h.cursor]
  rcases rel_cases h.image with ⟨hm, hn⟩ | ⟨a, b, hm, hn, hab⟩
  · rw [hm, hn]
    exact .none
  · rw [hm, hn]
    exact hab.bodies n.cursor.routine

/-- Coupled machines have related operations at their cursors, or none. -/
theorem Coupled.current? (h : m.Coupled c n) :
    Option.Rel (fun i j : Instruction => c.operation i.operation j.operation)
      m.current? n.current? := by
  unfold Machine.current?
  rw [h.cursor]
  rcases rel_cases h.body? with ⟨hm, hn⟩ | ⟨code, code', hm, hn, hcode⟩
  · rw [hm, hn]
    exact .none
  · rw [hm, hn]
    exact rel_getElem? hcode n.cursor.position

/-- **Coupled machines make the same step**, if what they carry out does the same
to their stacks. -/
theorem Coupled.stepInto (h : m.Coupled c n)
    (hmatch : ∀ i j, m.phase = .running → m.current? = some i → n.current? = some j →
      c.operation i.operation j.operation → c.Matches i.operation j.operation m.stack n.stack) :
    m.stepInto.Coupled c n.stepInto := by
  cases hphase : n.phase with
  | ready | finished =>
    unfold Machine.stepInto stepWith
    rw [h.phase, hphase]
    exact ⟨rfl, rfl, h⟩
  | waiting prompt =>
    unfold Machine.stepInto stepWith
    rw [h.phase, hphase]
    exact h.stepped
  | running =>
    have hphase' : m.phase = .running := h.phase.trans hphase
    rw [stepInto_of_running hphase', stepInto_of_running hphase]
    rcases rel_cases h.image with ⟨hm, hn⟩ | ⟨a, b, hm, hn, hab⟩
    · rw [hm, hn]
      exact h.fail _
    · rw [hm, hn]
      rcases rel_cases h.body? with ⟨hm, hn⟩ | ⟨code, code', hm, hn, -⟩
      · rw [hm, hn, h.cursor]
        exact h.fail _
      · rw [hm, hn]
        -- past the end of the body the routine is left
        rcases rel_cases h.current? with ⟨hi, hj⟩ | ⟨i, j, hi, hj, hop⟩
        · rw [hi, hj]
          exact h.leave
        · rw [hi, hj]
          exact h.execute hab hop (hmatch i j hphase' hi hj hop)

/-! ## §5. Requests and histories. -/

theorem Coupled.load (h : m.Coupled c n) (hnil : c.stack [] []) {p q : Program}
    (hpq : (Image.ofProgram p).Coupled c (Image.ofProgram q)) :
    (m.load p).Coupled c (n.load q) := by
  apply Coupled.done
  exact { h.rewound hnil .ready with image := .some hpq }

theorem Coupled.start (h : m.Coupled c n) (hnil : c.stack [] []) :
    m.start.Coupled c n.start := by
  unfold Machine.start
  rcases rel_cases h.image with ⟨hm, hn⟩ | ⟨a, b, hm, hn, hab⟩
  · rw [hm, hn]
    exact h.fail _
  · simp only [hm, hn, hab.isEmpty, hab.contains]
    by_cases hempty : b.isEmpty = true
    · rw [if_pos hempty, if_pos hempty]
      exact h.fail _
    · rw [if_neg hempty, if_neg hempty]
      by_cases hentry : b.contains entryName = true
      · rw [if_pos hentry, if_pos hentry]
        exact (h.rewound hnil .running).done
      · rw [if_neg hentry, if_neg hentry]
        exact h.fail _

theorem Coupled.provide (h : m.Coupled c n) {v w : Float} (hvw : c.value v w) :
    (m.provide v).Coupled c (n.provide w) := by
  unfold Machine.provide
  rw [h.phase]
  cases n.phase with
  | waiting prompt =>
    apply Coupled.done
    exact { h with phase := rfl, stack := c.cons hvw h.stack }
  | _ => exact h.fail _

theorem Coupled.listen (h : m.Coupled c n) (on : Bool) :
    (m.listen on).Coupled c (n.listen on) := by
  apply Coupled.done
  exact { h with listening := rfl }

/-- One request keeps machines coupled, if a step does. -/
theorem Coupled.handle (h : m.Coupled c n) {r r' : Request} (hr : r.Coupled c r')
    (hstep : ∀ strategy, r = .step strategy → m.stepInto.Coupled c n.stepInto) :
    (m.handle r).Coupled c (n.handle r') := by
  cases hr with
  | load hnil hpq => exact h.load hnil hpq
  | start hnil => exact h.start hnil
  | step strategy =>
    show (m.step strategy).Coupled c (n.step strategy)
    rw [step_eq_stepInto, step_eq_stepInto]
    exact hstep strategy rfl
  | provide hvw => exact h.provide hvw
  | listen on => exact h.listen on

/-- **A history keeps machines coupled**, if every step does whose responses are
among those that the history gets.  `P` and `Q` are what is known of the responses
of the two machines. -/
theorem Coupled.responses {P Q : Response → Prop}
    (hstep : ∀ m n : Machine, m.Coupled c n → P m.stepInto → Q n.stepInto →
      m.stepInto.Coupled c n.stepInto)
    {rs rs' : List Request} (hrequests : List.Forall₂ (Request.Coupled c) rs rs')
    (h : m.Coupled c n) (hP : ∀ r ∈ m.responses rs, P r) (hQ : ∀ r ∈ n.responses rs', Q r) :
    List.Forall₂ (Response.Coupled c) (m.responses rs) (n.responses rs') := by
  -- by induction on the two histories, the machines being any that are coupled
  induction hrequests generalizing m n with
  | nil => exact .nil
  | cons hr hrest ih =>
    next r r' rs rs' =>
    have hfirst : (m.handle r).Coupled c (n.handle r') := by
      refine h.handle hr ?_
      rintro strategy rfl
      cases hr
      -- the first response of each machine is its step, about which `P` and `Q` speak
      have hp : P (m.step strategy) := hP _ List.mem_cons_self
      have hq : Q (n.step strategy) := hQ _ List.mem_cons_self
      rw [step_eq_stepInto] at hp hq
      exact hstep m n h hp hq
    exact .cons hfirst (ih hfirst.machine (fun x hx => hP x (List.mem_cons_of_mem _ hx))
      fun x hx => hQ x (List.mem_cons_of_mem _ hx))

end Machine

end StackCalc
