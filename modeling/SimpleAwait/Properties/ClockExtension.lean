import SimpleAwait.Platform.Clock

/-!
# The extended clock follows the true time

`Micros32Extender::extend` over any sampling history whose first sample is in the first period.
-/

namespace SimpleAwait

open Micros32Extender

/-- The extended times never pass the true ones, agree with them in the low word and never fall;
where two samples are always less than one period apart, they are the true times. -/
theorem extender_exact (first : ℕ) (times : List ℕ)
    (hordered : (first :: times).IsChain (· ≤ ·)) (hbound : ∀ t ∈ first :: times, t < 2 ^ 64) :
    (first < 2 ^ 32 → (first :: times).IsChain (fun t u => u - t < 2 ^ 32) →
        (extendAll {} (first :: times)).map UInt64.toNat = first :: times) ∧
      List.Forall₂ (fun value t => value.toNat ≤ t ∧ value.toNat % 2 ^ 32 = t % 2 ^ 32)
        (extendAll {} (first :: times)) (first :: times) ∧
      (extendAll {} (first :: times)).IsChain (· ≤ ·) := by
  have hstart : (0 :: first :: times).IsChain (· ≤ ·) :=
    List.isChain_cons_cons.mpr ⟨Nat.zero_le first, hordered⟩
  obtain ⟨hfollow, hchain⟩ := follows_initial.extendAll hstart hbound
  refine ⟨fun hfirst hgaps => ?_, hfollow, ?_⟩
  · have hfromZero : (0 :: first :: times).IsChain fun t u => u - t < 2 ^ 32 :=
      List.isChain_cons_cons.mpr ⟨by omega, hgaps⟩
    exact follows_initial.extendAll_exact rfl hstart hfromZero hbound
  · have hvalues := (List.isChain_cons.mp hchain).2
    exact (List.isChain_map UInt64.toNat).mp hvalues

/-- A sample on the wrap, the same sample again, and one just under a period later. -/
theorem extender_exact_small :
    (extendAll {} [5, 2 ^ 32, 2 ^ 32, 2 ^ 33 - 1]).map UInt64.toNat =
      [5, 2 ^ 32, 2 ^ 32, 2 ^ 33 - 1] :=
  (extender_exact 5 [2 ^ 32, 2 ^ 32, 2 ^ 33 - 1] (by simp) (by simp)).1 (by decide) (by simp)

end SimpleAwait
