/-
  StackCalc.Proofs.Machine.Wrapping
  ─────────────────────────────────
  **POSITIONS DO NOT OVERFLOW.**

  A label may have any position that a word of 64 bits holds, so a jump can put the
  cursor on the last of them, to which one cannot be added.  Nothing is added there: past
  the end of a body no operation is carried out, and the machine adds

      to the cursor, after an operation that neither jumps nor calls,
      to a call that waits, when it returns to it,

  and to nothing else.  Both stand at an operation, the second since the calls are a
  chain.  A body is shorter than `2 ^ 64`, so the sum fits, and a machine that keeps its
  cursor in a word (`Machine.handleWrapped`) runs as one that counts without bound.
-/
import StackCalc.Proofs.Machine.CallChain
import StackCalc.Proofs.Machine.Labels

namespace StackCalc

/-! ## §1. Programs whose numbers fit. -/

/-- A word that is not the last one has a successor. -/
theorem toNat_add_one_of_lt {w : UInt64} (h : w.toNat < UInt64.size - 1) :
    (w + 1).toNat = w.toNat + 1 := by
  rw [UInt64.toNat_add]
  exact Nat.mod_eq_of_lt (Nat.add_lt_of_lt_sub h)

/-- The positions of the instructions are words, and so are the lengths of the bodies. -/
structure Program.FitsWord (p : Program) : Prop where
  position : ∀ i ∈ p.instructions, i.position < UInt64.size
  body : ∀ name body, (Image.ofProgram p).body? name = some body → body.length < UInt64.size

/-- The positions of the labels are words, and so are the lengths of the bodies. -/
structure Image.FitsWord (image : Image) : Prop where
  label : ∀ name position, image.label? name = some position → position < UInt64.size
  body : ∀ name body, image.body? name = some body → body.length < UInt64.size

/-- If the request is to load a program, the numbers of the program fit. -/
def Request.FitsWord (r : Request) : Prop :=
  ∀ program, r = .load program → program.FitsWord

namespace Image

variable {image : Image}

theorem fitsWord_ofProgram {p : Program} (h : p.FitsWord) : (ofProgram p).FitsWord where
  label := by
    intro name position hlabel
    obtain ⟨before, i, ⟨-, after, hscan, -⟩, rfl⟩ := (label?_eq_some_iff p).1 hlabel
    have hi : i ∈ (ofProgram p).scan := by
      rw [hscan]
      exact List.mem_append_right _ List.mem_cons_self
    exact h.position i ((mem_bodies_iff p).1 ((mem_scan p).1 hi)).1
  body := h.body

/-- **One can be added to the position of an operation.** -/
theorem FitsWord.position_lt {l : Location} {op : Operation} (h : image.FitsWord)
    (hop : image.operation? l = some op) : l.position < UInt64.size - 1 := by
  obtain ⟨body, hbody, hposition⟩ := Option.bind_eq_some_iff.1 hop
  obtain ⟨i, hi, -⟩ := Option.map_eq_some_iff.1 hposition
  have hinside : l.position < body.length := (List.getElem?_eq_some_iff.1 hi).1
  have hlength := h.body _ body hbody
  omega

end Image

/-! ## §2. Additions. -/

namespace Machine

variable {m : Machine} {image : Image} {r : Request} {n : Nat}

/-- The numbers to which a request makes the machine add one, unless it fails. -/
inductive Increments (m : Machine) : Request → Nat → Prop
  | advance {strategy : Strategy} {i : Instruction} (hphase : m.phase = .running)
      (hi : m.current? = some i) (hgoto : ∀ name, i.operation ≠ .goto name)
      (hcall : ∀ name, i.operation ≠ .call name) :
      Increments m (.step strategy) m.cursor.position
  | returning {strategy : Strategy} {frame : Location} {frames : List Location}
      (hphase : m.phase = .running) (hend : m.current? = none)
      (hframes : m.frames = frame :: frames) : Increments m (.step strategy) frame.position

/-- **The machine adds to small numbers only.** -/
theorem Reachable.increments_lt (hm : m.Reachable)
    (hfits : ∀ image, m.image = some image → image.FitsWord) (h : m.Increments r n) :
    n < UInt64.size - 1 := by
  have hlinked : m.phase = .running → m.Linked := by
    intro hphase
    refine hm.linked ?_
    rw [hphase]
    exact Phase.noConfusion
  cases h with
  | advance hphase hi _ _ =>
    obtain ⟨image, himage, -⟩ := hlinked hphase
    have hop := operation?_cursor himage
    rw [hi] at hop
    exact (hfits image himage).position_lt hop
  | returning hphase _ hframes =>
    obtain ⟨image, himage, hchain⟩ := hlinked hphase
    -- the call was made long ago, but it still waits at its `CALL`
    rw [places, hframes] at hchain
    obtain ⟨name, hop⟩ := hchain.exists_call _ List.mem_cons_self
    exact (hfits image himage).position_lt hop

/-- An operation that neither jumps nor calls adds to the cursor. -/
theorem increments_advance {strategy : Strategy} {op : Operation} (himage : m.image = some image)
    (hphase : m.phase = .running) (hop : image.operation? m.cursor = some op)
    (hgoto : ∀ name, op ≠ .goto name) (hcall : ∀ name, op ≠ .call name) :
    m.Increments (.step strategy) m.cursor.position := by
  rw [operation?_cursor himage] at hop
  obtain ⟨i, hi, rfl⟩ := Option.map_eq_some_iff.1 hop
  exact .advance hphase hi hgoto hcall

/-- Where the cursor is after a move. -/
theorem MovedBy.position_cases (h : m.MovedBy image r) :
    (m.handle r).machine.cursor.position = m.cursor.position
      ∨ (∃ n, m.Increments r n ∧ (m.handle r).machine.cursor.position = n + 1)
      ∨ (∃ name, image.label? name = some (m.handle r).machine.cursor.position)
      ∨ (m.handle r).machine.cursor.position = 0 := by
  obtain ⟨strategy, rfl⟩ := h.step
  have hmoves := h.moves
  generalize m.handle (.step strategy) = s at hmoves ⊢
  cases hmoves with
  | next hop _ hgoto hcall _ =>
    exact .inr (.inl ⟨_, increments_advance h.loaded h.running hop hgoto hcall, rfl⟩)
  | ask hop =>
    exact .inr (.inl ⟨_, increments_advance h.loaded h.running hop (by simp) (by simp), rfl⟩)
  | jump _ hlabel => exact .inr (.inr (.inl ⟨_, hlabel⟩))
  | enter _ _ => exact .inr (.inr (.inr rfl))
  | leave hend hframes =>
    rw [operation?_cursor h.loaded, Option.map_eq_none_iff] at hend
    exact .inr (.inl ⟨_, .returning h.running hend hframes, rfl⟩)
  | finish _ _ => exact .inl rfl

/-- **Where the cursor can be after a request**: where it was, at a sum, at a label, or at the
beginning of a routine. -/
theorem position_cases (m : Machine) (r : Request) :
    (m.handle r).machine.cursor.position = m.cursor.position
      ∨ (∃ n, m.Increments r n ∧ (m.handle r).machine.cursor.position = n + 1)
      ∨ (∃ image name, m.image = some image
          ∧ image.label? name = some (m.handle r).machine.cursor.position)
      ∨ (m.handle r).machine.cursor.position = 0 := by
  by_cases hr : r.continues = true
  · rcases m.handle_cases hr with hrests | ⟨image, hmoved⟩
    · exact .inl (congrArg Location.position (List.cons.inj hrests.places).1)
    · rcases hmoved.position_cases with hsame | hsum | ⟨name, hlabel⟩ | hzero
      · exact .inl hsame
      · exact .inr (.inl hsum)
      · exact .inr (.inr (.inl ⟨image, name, hmoved.loaded, hlabel⟩))
      · exact .inr (.inr (.inr hzero))
  · cases r with
    | load program => exact .inr (.inr (.inr rfl))
    | start =>
      rcases m.start_cases with ⟨-, hdone⟩ | ⟨fault, hfail⟩
      · have hhandle : m.handle .start = done (m.rewound .running) := hdone
        rw [hhandle]
        exact .inr (.inr (.inr rfl))
      · have hhandle : m.handle .start = m.fail fault := hfail
        rw [hhandle]
        exact .inl rfl
    | step | provide | listen => exact absurd rfl hr

/-! ## §3. Runs in words. -/

/-- The machine with its cursor cut to a word, so that a sum that does not fit wraps around. -/
def wrapped (m : Machine) : Machine :=
  { m with cursor := { m.cursor with position := (UInt64.ofNat m.cursor.position).toNat } }

/-- The machine answers a request, and keeps its cursor in a word. -/
def handleWrapped (m : Machine) (r : Request) : Response :=
  { m.handle r with machine := (m.handle r).machine.wrapped }

/-- The responses of a machine that keeps its cursor in a word. -/
def responsesWrapped (m : Machine) : List Request → List Response
  | [] => []
  | request :: rest =>
    let r := m.handleWrapped request
    r :: r.machine.responsesWrapped rest

/-- The numbers of the machine fit into words. -/
structure InWord (m : Machine) : Prop where
  image : ∀ image, m.image = some image → image.FitsWord
  position : m.cursor.position < UInt64.size

theorem inWord_new : InWord {} where
  image := by
    intro image himage
    cases himage
  position := by decide

theorem InWord.wrapped_eq (h : m.InWord) : m.wrapped = m := by
  unfold wrapped
  rw [UInt64.toNat_ofNat_of_lt' h.position]

theorem Reachable.handle (h : m.Reachable) (r : Request) : (m.handle r).machine.Reachable := by
  obtain ⟨history, rfl⟩ := h
  refine ⟨history ++ [r], ?_⟩
  rw [after_append]
  rfl

/-- **A request keeps the numbers of the machine in words.** -/
theorem InWord.handle (h : m.InWord) (hm : m.Reachable) (hr : r.FitsWord) :
    (m.handle r).machine.InWord where
  image := by
    intro image himage
    by_cases hload : ∃ program, r = .load program
    · obtain ⟨program, rfl⟩ := hload
      cases himage
      exact Image.fitsWord_ofProgram (hr program rfl)
    · rw [image_handle_of_ne_load fun program e => hload ⟨program, e⟩] at himage
      exact h.image image himage
  position := by
    rcases m.position_cases r with hsame | ⟨n, hadds, hsum⟩ | ⟨image, name, himage, hlabel⟩ | hzero
    · rw [hsame]
      exact h.position
    · -- the sum itself may be the last word
      have hsmall := hm.increments_lt h.image hadds
      omega
    · exact (h.image image himage).label name _ hlabel
    · rw [hzero]
      decide

variable {history : List Request}

theorem InWord.after (h : m.InWord) (hm : m.Reachable) (hhistory : ∀ r ∈ history, r.FitsWord) :
    (m.after history).InWord := by
  induction history generalizing m with
  | nil => exact h
  | cons r history ih =>
    exact ih (h.handle hm (hhistory r List.mem_cons_self)) (hm.handle r)
      fun x hx => hhistory x (List.mem_cons_of_mem _ hx)

/-- **A run in words is the run.** -/
theorem InWord.responsesWrapped_eq (h : m.InWord) (hm : m.Reachable)
    (hhistory : ∀ r ∈ history, r.FitsWord) :
    m.responsesWrapped history = m.responses history := by
  induction history generalizing m with
  | nil => rfl
  | cons r history ih =>
    have hnext := h.handle hm (hhistory r List.mem_cons_self)
    have hfirst : m.handleWrapped r = m.handle r := by
      unfold handleWrapped
      rw [hnext.wrapped_eq]
    have hrest := ih hnext (hm.handle r) fun x hx => hhistory x (List.mem_cons_of_mem _ hx)
    rw [responsesWrapped, responses, hfirst, hrest]

end Machine

end StackCalc
