import Mathlib.Algebra.BigOperators.Fin
import Mathlib.Algebra.Order.BigOperators.Group.Finset
import Mathlib.Data.Set.Card

/-!
# Counting over the threads of a system

A concurrent component with threads `ι` keeps one local state per thread, and a counting argument
about it adds up a weight of these local states.  One step moves one thread, so what is needed is
how such a sum changes when all threads but one keep their weight; `tally_change` and
`tally_update` state it without subtraction, in the form `omega` can use.
-/

namespace StepMachine

variable {ι β : Type*} [Fintype ι]

/-- The sum over all threads of a weight of their local states. -/
def tally (w : ι → β → ℕ) (f : ι → β) : ℕ :=
  ∑ i, w i (f i)

variable {w w' : ι → β → ℕ} {f g : ι → β}

/-- Weights that agree on every thread have the same sum. -/
theorem tally_congr (h : ∀ i, w i (f i) = w' i (g i)) : tally w f = tally w' g :=
  Finset.sum_congr rfl fun i _ => h i

/-- Weights that agree on every thread but one differ by what they give to that thread. -/
theorem tally_change [DecidableEq ι] (i : ι) (h : ∀ j, j ≠ i → w j (f j) = w' j (g j)) :
    tally w f + w' i (g i) = tally w' g + w i (f i) := by
  have hrest : ∑ j ∈ Finset.univ.erase i, w j (f j) = ∑ j ∈ Finset.univ.erase i, w' j (g j) :=
    Finset.sum_congr rfl fun j hj => h j (Finset.ne_of_mem_erase hj)
  have hleft := Finset.add_sum_erase _ (fun j => w j (f j)) (Finset.mem_univ i)
  have hright := Finset.add_sum_erase _ (fun j => w' j (g j)) (Finset.mem_univ i)
  unfold tally
  omega

/-- Moving one thread changes the sum by the difference of its two weights. -/
theorem tally_update [DecidableEq ι] (w : ι → β → ℕ) (f : ι → β) (i : ι) (b : β) :
    tally w (Function.update f i b) + w i (f i) = tally w f + w i b := by
  have h : tally w (Function.update f i b) + w i (f i) =
      tally w f + w i (Function.update f i b i) :=
    tally_change i fun j hj => by rw [Function.update_of_ne hj]
  rwa [Function.update_self] at h

/-- A positive sum has a thread of positive weight. -/
theorem exists_of_tally_pos (h : 0 < tally w f) : ∃ i, 0 < w i (f i) := by
  obtain ⟨i, -, hi⟩ := Finset.exists_ne_zero_of_sum_ne_zero h.ne'
  exact ⟨i, Nat.pos_of_ne_zero hi⟩

/-- A weight that is one on the threads with a property and zero on the others counts them. -/
theorem tally_eq_ncard (P : ι → Prop) (h : ∀ i, P i ∧ w i (f i) = 1 ∨ ¬ P i ∧ w i (f i) = 0) :
    tally w f = {i | P i}.ncard := by
  classical
  have hweight : ∀ i, w i (f i) = if P i then 1 else 0 := by
    intro i
    obtain ⟨hP, hw⟩ | ⟨hP, hw⟩ := h i
    · rw [hw, if_pos hP]
    · rw [hw, if_neg hP]
  have hset : {i | P i} = ((Finset.univ.filter P : Finset ι) : Set ι) := by
    ext i
    simp
  rw [hset, Set.ncard_coe_finset, Finset.card_filter]
  exact Finset.sum_congr rfl fun i _ => hweight i

end StepMachine
