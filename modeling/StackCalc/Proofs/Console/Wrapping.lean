/-
  StackCalc.Proofs.Console.Wrapping
  ─────────────────────────────────
  **NO ADDITION OVERFLOWS.**

  A run counts its steps up to the limit, and compares before it counts:

      steps < limit ≤ 2 ^ 64 - 1      wherever one is added to `steps`.

  So the counter never passes the limit, and a loop with a counter that wraps around
  (`Progress.driveWrapped`) is the loop that has a budget.  With what
  `StackCalc.Proofs.Machine.Wrapping` says of positions, words of 64 bits do for all the
  numbers to which something is added.
-/
import StackCalc.Proofs.Console.Course
import StackCalc.Proofs.Machine.Wrapping

namespace StackCalc.Console.Run

/-! ## §1. The counter. -/

/-- A counter below its limit can be raised. -/
theorem toNat_add_one_of_lt_limit {steps limit : UInt64} (h : steps < limit) :
    (steps + 1).toNat = steps.toNat + 1 := by
  have hsteps := UInt64.lt_iff_toNat_lt.1 h
  have hlimit := limit.toNat_lt_size
  exact toNat_add_one_of_lt (by omega)

namespace Progress

/-- Answers and steps until the run ends, with a counter in a word: `steps` of the `limit` steps
are made. -/
def driveWrapped (strategy : Strategy) (limit steps : UInt64) (p : Progress)
    (input : List InputLine) : Progress × Verdict :=
  match p.answer input with
  | (p, _, some verdict) => (p, verdict)
  | (p, input, none) =>
    if steps < limit then
      match p.step strategy with
      | (p, .failed fault) => (p, .faulted fault)
      | (p, .stepped) => driveWrapped strategy limit (steps + 1) p input
      | (p, _) => (p, .finished)
    else (p, .exhausted limit.toNat p.machine.cursor)
termination_by limit.toNat - steps.toNat
decreasing_by
  -- a counter that wrapped around would count for ever
  have hsteps : steps.toNat < limit.toNat := UInt64.lt_iff_toNat_lt.1 ‹steps < limit›
  rw [toNat_add_one_of_lt_limit ‹steps < limit›]
  omega

variable {strategy : Strategy} {limit : UInt64}

/-- **The counter and the budget add up to the limit**, so the two loops are the same. -/
theorem driveWrapped_eq (budget : Nat) {steps : UInt64} (h : steps.toNat + budget = limit.toNat)
    (p : Progress) (input : List InputLine) :
    driveWrapped strategy limit steps p input = drive strategy limit.toNat budget p input := by
  induction budget generalizing steps p input with
  | zero =>
    have hfull : ¬ steps < limit := by
      rw [UInt64.lt_iff_toNat_lt]
      omega
    rw [driveWrapped, drive]
    rcases p.answer input with ⟨p, input, _ | verdict⟩
    · exact if_neg hfull
    · rfl
  | succ budget ih =>
    have hbelow : steps < limit := by
      rw [UInt64.lt_iff_toNat_lt]
      omega
    have hnext : (steps + 1).toNat + budget = limit.toNat := by
      rw [toNat_add_one_of_lt_limit hbelow]
      omega
    rw [driveWrapped, drive]
    rcases p.answer input with ⟨p, input, _ | verdict⟩
    · simp only [if_pos hbelow]
      rcases p.step strategy with ⟨p, reply⟩
      cases reply with
      | stepped => exact ih hnext p input
      | _ => rfl
    · rfl

end Progress

/-- A run of at most `limit` steps, with a counter in a word. -/
def runWrapped (p : Program) (strategy : Strategy) (limit : UInt64) (input : List InputLine) :
    Progress × Verdict :=
  match (begun p).reply with
  | .failed fault => ({ machine := (begun p).machine }, .faulted fault)
  | _ => Progress.driveWrapped strategy limit 0 { machine := (begun p).machine } input

theorem runWrapped_eq (p : Program) (strategy : Strategy) (limit : UInt64)
    (input : List InputLine) :
    runWrapped p strategy limit input = run p strategy limit.toNat input := by
  have hcount : (0 : UInt64).toNat + limit.toNat = limit.toNat := Nat.zero_add limit.toNat
  have hrun : run p strategy limit.toNat input = match (begun p).reply with
      | .failed fault => ({ machine := (begun p).machine }, .faulted fault)
      | _ => Progress.drive strategy limit.toNat limit.toNat { machine := (begun p).machine }
          input := rfl
  rw [runWrapped, hrun]
  cases (begun p).reply with
  | failed fault => rfl
  | _ => exact Progress.driveWrapped_eq limit.toNat hcount { machine := (begun p).machine } input

theorem Ends.calls_le {p : Program} {strategy : Strategy} {limit calls : Nat}
    {input rest : List InputLine} {verdict : Verdict} {remarks : List Remark} {n : Machine}
    (h : Ends p strategy limit input calls verdict remarks n rest) : calls ≤ limit := by
  cases h with
  | refused _ => exact Nat.zero_le limit
  | exhausted _ => exact Nat.le_refl limit
  | finished _ hk | faulted _ hk | starved _ hk | garbled _ hk => exact hk

/-- **A run does not make more steps than it may.** -/
theorem calls_run_le (p : Program) (strategy : Strategy) (limit : Nat) (input : List InputLine) :
    (run p strategy limit input).1.calls ≤ limit := by
  obtain ⟨calls, verdict, remarks, n, rest, h⟩ := exists_ends p strategy limit input
  rw [run_eq_of_ends h]
  exact h.calls_le

end StackCalc.Console.Run

namespace StackCalc

open Console.Run

/-! ## §2. All additions. -/

/-- **No addition overflows.**  Let the positions in all programs that are loaded be words, and
their bodies be shorter than `2 ^ 64`.  Then, whatever is asked of a machine next, one is added
to numbers other than the last word only; the cursor moves by such an addition, to a label, or
to a beginning; and a machine that keeps its cursor in a word gives the same responses.  And a
run from the command line never counts past its limit, so it is the same with a counter that
is a word. -/
theorem no_addition_overflows {history : List Request} (hhistory : ∀ r ∈ history, r.FitsWord) :
    let m := Machine.after {} history
    (∀ r n, m.Increments r n → n < UInt64.size - 1 ∧ (UInt64.ofNat n + 1).toNat = n + 1)
      ∧ (∀ r, (m.handle r).machine.cursor.position = m.cursor.position
          ∨ (∃ n, m.Increments r n ∧ (m.handle r).machine.cursor.position = n + 1)
          ∨ (∃ image name, m.image = some image
              ∧ image.label? name = some (m.handle r).machine.cursor.position)
          ∨ (m.handle r).machine.cursor.position = 0)
      ∧ Machine.responsesWrapped {} history = Machine.responses {} history
      ∧ ∀ p strategy (limit : UInt64) input,
          (run p strategy limit.toNat input).1.calls ≤ limit.toNat
            ∧ runWrapped p strategy limit input = run p strategy limit.toNat input := by
  intro m
  have hnew : Machine.Reachable {} := ⟨[], rfl⟩
  have hm : m.InWord := Machine.inWord_new.after hnew hhistory
  refine ⟨?_, m.position_cases, Machine.inWord_new.responsesWrapped_eq hnew hhistory, ?_⟩
  · intro r n hadds
    have hsmall := Machine.Reachable.increments_lt ⟨history, rfl⟩ hm.image hadds
    have hword : (UInt64.ofNat n).toNat = n := UInt64.toNat_ofNat_of_lt' (by omega)
    refine ⟨hsmall, ?_⟩
    rw [toNat_add_one_of_lt (by rw [hword]; exact hsmall), hword]
  · intro p strategy limit input
    exact ⟨calls_run_le p strategy limit.toNat input, runWrapped_eq p strategy limit input⟩

/-- A program that calls a routine, which jumps as far as it can. -/
def farProgram : Program where
  routines := [⟨1, "main"⟩, ⟨2, "far"⟩]
  instructions :=
    [⟨1, 1, 0, .call "far"⟩, ⟨2, 2, 0, .goto "end"⟩, ⟨3, 2, 18446744073709551615, .label "end"⟩]

def farImage : Image where
  bodies :=
    [("main", [⟨1, 1, 0, .call "far"⟩]),
      ("far", [⟨2, 2, 0, .goto "end"⟩, ⟨3, 2, 18446744073709551615, .label "end"⟩])]
  labels := [("end", 18446744073709551615)]

theorem ofProgram_farProgram : Image.ofProgram farProgram = farImage := by
  have hsorted : ∀ r ∈ farProgram.routines,
      (farProgram.owned r).Pairwise fun i j => i.position ≤ j.position := by decide
  have hbodies : (Image.ofProgram farProgram).bodies
      = farProgram.routines.map fun r => (r.name, farProgram.owned r) := by
    rw [Image.bodies_ofProgram (by decide) (by decide)]
    apply List.map_congr_left
    intro r hr
    rw [Program.body_eq, byPosition_of_pairwise (hsorted r hr)]
  show (⟨(Image.ofProgram farProgram).bodies,
    (Image.labelsOf (Image.ofProgram farProgram).bodies).reverse⟩ : Image) = farImage
  rw [hbodies]
  rfl

theorem fitsWord_farProgram : farProgram.FitsWord where
  position := by decide
  body := by
    intro name body hbody
    rw [Image.body?_eq_some_iff, ofProgram_farProgram] at hbody
    have hshort : ∀ b ∈ farImage.bodies, b.2.length < UInt64.size := by decide
    exact hshort (name, body) hbody

/-- A run of `farProgram` up to the place from which its routine returns. -/
def farHistory : List Request :=
  [.load farProgram, .start, .step .into, .step .into]

theorem no_addition_overflows_farHistory :
    let m := Machine.after {} farHistory
    (∀ r ∈ farHistory, r.FitsWord)
      ∧ m.cursor = ⟨"far", 18446744073709551615⟩
      ∧ m.Increments (.step .into) 0
      ∧ (∀ r n, m.Increments r n → n < 18446744073709551615)
      ∧ Machine.responsesWrapped {} farHistory = Machine.responses {} farHistory
      ∧ runWrapped farProgram .into 18446744073709551615 []
        = run farProgram .into 18446744073709551615 [] := by
  intro m
  have hhistory : ∀ r ∈ farHistory, r.FitsWord := by
    intro r hr program hload
    subst hload
    have hprogram : program = farProgram := by simpa [farHistory] using hr
    rw [hprogram]
    exact fitsWord_farProgram
  have hm : m = Machine.after { image := some farImage } farHistory.tail := by
    rw [← ofProgram_farProgram]
    rfl
  have hframes : m.frames = [⟨"main", 0⟩] := by
    rw [hm]
    rfl
  have hreturn : m.Increments (.step .into) 0 :=
    .returning (by rw [hm]; rfl) (by rw [hm]; rfl) hframes
  obtain ⟨hadds, -, hresponses, hrun⟩ := no_addition_overflows hhistory
  refine ⟨hhistory, by rw [hm]; rfl, hreturn, fun r n h => (hadds r n h).1, hresponses, ?_⟩
  exact (hrun farProgram .into 18446744073709551615 []).2

end StackCalc
