/-
  StackCalc.Proofs.Program.Order
  ──────────────────────────────
  **INSTRUCTIONS BY POSITION.**

  Ordering instructions by position keeps all of them, with their order where
  positions are equal.  Two facts say so completely:

      positions ascend in byPosition code
      (byPosition code).filter (position = k) = code.filter (position = k)

  Where no two positions are equal, the order in which the instructions came
  cannot be told from the result.
-/
import Mathlib.Data.List.Nodup
import StackCalc.Program.Basic

namespace StackCalc

/-! ## §1. The order. -/

theorem Instruction.notAfter_iff {i j : Instruction} :
    i.notAfter j = true ↔ i.position ≤ j.position :=
  decide_eq_true_iff

theorem Instruction.notAfter_trans (i j k : Instruction) (hij : i.notAfter j = true)
    (hjk : j.notAfter k = true) : i.notAfter k = true := by
  rw [notAfter_iff] at hij hjk ⊢
  exact Nat.le_trans hij hjk

theorem Instruction.notAfter_total (i j : Instruction) :
    (i.notAfter j || j.notAfter i) = true := by
  rw [Bool.or_eq_true, notAfter_iff, notAfter_iff]
  exact Nat.le_total i.position j.position

theorem perm_byPosition (code : List Instruction) : (byPosition code).Perm code :=
  List.mergeSort_perm code _

/-- Positions ascend. -/
theorem pairwise_byPosition (code : List Instruction) :
    (byPosition code).Pairwise fun i j => i.position ≤ j.position := by
  have hsorted := List.pairwise_mergeSort Instruction.notAfter_trans Instruction.notAfter_total code
  exact hsorted.imp Instruction.notAfter_iff.1

/-- Instructions whose positions ascend are in order. -/
theorem byPosition_of_pairwise {code : List Instruction}
    (h : code.Pairwise fun i j => i.position ≤ j.position) : byPosition code = code :=
  List.mergeSort_of_pairwise (h.imp Instruction.notAfter_iff.2)

/-! ## §2. Equal positions. -/

/-- **Instructions with equal positions keep their order.** -/
theorem filter_byPosition (code : List Instruction) (k : Nat) :
    ((byPosition code).filter fun i => i.position = k) = code.filter fun i => i.position = k := by
  have htied : (code.filter fun i => i.position = k).Pairwise fun i j => i.notAfter j = true := by
    refine List.pairwise_of_forall_mem_list ?_
    intro i hi j hj
    have hik : i.position = k := by simpa using (List.mem_filter.1 hi).2
    have hjk : j.position = k := by simpa using (List.mem_filter.1 hj).2
    exact Instruction.notAfter_iff.2 (by omega)
  -- instructions that are in order already are found in this order after the sort
  have hsub : (code.filter fun i => i.position = k).Sublist (byPosition code) :=
    List.sublist_mergeSort Instruction.notAfter_trans Instruction.notAfter_total htied
      List.filter_sublist
  have hkept := hsub.filter fun i => decide (i.position = k)
  rw [List.filter_filter] at hkept
  simp only [Bool.and_self] at hkept
  refine (hkept.eq_of_length ?_).symm
  exact ((perm_byPosition code).filter _).length_eq.symm

/-! ## §3. Different positions. -/

/-- **Instructions at different positions are ordered alike, however they come.** -/
theorem byPosition_eq_of_perm {code code' : List Instruction} (h : code.Perm code')
    (hpositions : (code.map (·.position)).Nodup) : byPosition code = byPosition code' := by
  have hperm : (byPosition code).Perm (byPosition code') :=
    (perm_byPosition code).trans (h.trans (perm_byPosition code').symm)
  refine hperm.eq_of_pairwise ?_ (pairwise_byPosition code) (pairwise_byPosition code')
  intro i j hi hj hij hji
  -- the position tells one instruction from another
  have hi' : i ∈ code := (perm_byPosition code).mem_iff.1 hi
  have hj' : j ∈ code := h.mem_iff.2 ((perm_byPosition code').mem_iff.1 hj)
  exact List.inj_on_of_nodup_map hpositions hi' hj' (Nat.le_antisymm hij hji)

end StackCalc
