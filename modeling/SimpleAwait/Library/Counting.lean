import Mathlib.Algebra.BigOperators.Ring.Finset
import Mathlib.Data.Fintype.BigOperators

/-!
# Counting after a pointwise update
-/

namespace Counting

variable {ι α : Type*} [Fintype ι] [DecidableEq ι]

/-- Changing one value of `f` changes the number of values with property `P` by what that
one value contributed before and contributes after. -/
theorem card_filter_update (P : α → Prop) [DecidablePred P] (f : ι → α) (i : ι) (a : α) :
    (Finset.univ.filter fun j => P (Function.update f i a j)).card + (if P (f i) then 1 else 0) =
      (Finset.univ.filter fun j => P (f j)).card + (if P a then 1 else 0) := by
  have hrest : ∑ j ∈ Finset.univ.erase i, (if P (Function.update f i a j) then 1 else 0) =
      ∑ j ∈ Finset.univ.erase i, if P (f j) then 1 else 0 := by
    refine Finset.sum_congr rfl fun j hj => ?_
    rw [Function.update_of_ne (Finset.ne_of_mem_erase hj)]
  rw [Finset.card_filter, Finset.card_filter, ← Finset.add_sum_erase _ _ (Finset.mem_univ i),
    ← Finset.add_sum_erase (a := i) Finset.univ (fun j => if P (f j) then 1 else 0)
      (Finset.mem_univ i), hrest, Function.update_self]
  omega

end Counting
